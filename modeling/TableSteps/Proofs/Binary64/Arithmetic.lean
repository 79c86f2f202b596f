import TableSteps.Proofs.Binary64.Finite
import TableSteps.Proofs.Binary64.SignedZero

/-! # Arithmetic that does not round

A finite double is a significand times a power of two, and its unpacked form is made of the two. So
what an operation makes of special operands can be read off: a finite double times one is itself,
less itself is a zero, and what is no number stays so whatever is done with it. Infinity less itself
is no number either. -/

namespace TableSteps.Binary64

open Float.Model Float.Model.UnpackedFloat
open Quantity (Agree)

/-! ## The unpacked form -/

section Fields

variable {b : BitVec 64}

theorem toNat_unpackExponent :
    (@unpackExponent Format.binary64 b).toNat = b.toNat % signBit / binade := by
  have hb : b.toNat < 2 ^ 64 := b.isLt
  simp only [unpackExponent, BitVec.toNat_cast, BitVec.extractLsb_toNat,
    Nat.shiftRight_eq_div_pow, signBit, binade]
  simp
  omega

theorem toNat_unpackMantissa :
    (@unpackMantissa Format.binary64 b).toNat = b.toNat % signBit % binade := by
  have hb : b.toNat < 2 ^ 64 := b.isLt
  simp only [unpackMantissa, BitVec.toNat_cast, BitVec.extractLsb_toNat,
    Nat.shiftRight_eq_div_pow, signBit, binade]
  simp

end Fields

/-- What a double is unpacked to: no number, an infinity, a zero, or a significand and an exponent,
by the bits below the sign. -/
inductive Unpacks (x : Float) : UnpackedFloat → Prop where
  | notANumber (h : isNaN x = true) : Unpacks x .notANumber
  | infinity (s : Sign) (h : magnitude x = limit) : Unpacks x (.infinity s)
  | zero (s : Sign) (h : magnitude x = 0) : Unpacks x (.zero s)
  | finite (s : Sign) (hpos : 0 < magnitude x) (h : magnitude x < limit) :
    Unpacks x (.finite s (significand (magnitude x)) (exponent (magnitude x))
      (significand_pos hpos))

theorem Unpacks.of_eq {x : Float} (s : Sign) (hpos : 0 < magnitude x) (h : magnitude x < limit)
    {m : Nat} {e : Int} {hm : 0 < m} (hm' : m = significand (magnitude x))
    (he : e = exponent (magnitude x)) : Unpacks x (.finite s m e hm) := by
  subst hm' he
  exact .finite s hpos h

theorem significand_eq (k : Nat) :
    significand k = if k / binade = 0 then k % binade else k % binade + binade := by
  unfold significand binade
  split <;> split <;> omega

theorem exponent_eq (k : Nat) :
    exponent k = if k / binade = 0 then (-1074 : Int) else (k / binade : Nat) - 1075 := by
  unfold exponent binade
  split <;> split <;> omega

theorem unpacks (x : Float) : Unpacks x (unpacked x) := by
  change Unpacks x (UnpackedFloat.unpack Format.binary64 x.toBits.toBitVec)
  have hexponent : (@unpackExponent Format.binary64 x.toBits.toBitVec).toNat =
      magnitude x / binade := toNat_unpackExponent
  have hmantissa : (@unpackMantissa Format.binary64 x.toBits.toBitVec).toNat =
      magnitude x % binade := toNat_unpackMantissa
  have hleading : (1#1 ++ @unpackMantissa Format.binary64 x.toBits.toBitVec).toNat =
      magnitude x % binade + binade := by
    rw [BitVec.toNat_append, ← Nat.shiftLeft_add_eq_or_of_lt (BitVec.isLt _), hmantissa,
      Nat.add_comm]
    rfl
  have hones : (-BitVec.ofNat Format.binary64.exponentBits 1).toNat = 2047 := rfl
  have hzeros (n : Nat) : (0#n).toNat = 0 := rfl
  have hbias : ((Format.binary64.exponentBias : Int) +
      Format.binary64.mantissaBitsWithoutImplicit) = 1075 := rfl
  have hbelow : magnitude x / binade < 2048 := Nat.div_lt_of_lt_mul (Nat.mod_lt _ (by decide))
  have hparts : magnitude x = binade * (magnitude x / binade) + magnitude x % binade :=
    (Nat.div_add_mod ..).symm
  have hrest : magnitude x % binade < binade := Nat.mod_lt _ (by decide)
  have hlimit : limit = binade * 2047 := rfl
  have hsignificand := significand_eq (magnitude x)
  have hexponent' := exponent_eq (magnitude x)
  simp only [UnpackedFloat.unpack, ← BitVec.toNat_inj, hexponent, hmantissa, hleading, hones,
    hzeros, hbias]
  generalize magnitude x / binade = q at *
  generalize magnitude x % binade = r at *
  split <;> rename_i hfull
  · subst hfull
    split <;> rename_i hnone
    · exact .infinity _ (by omega)
    · exact .notANumber (decide_eq_true (by omega))
  · have hfinite : magnitude x < limit := by
      unfold binade at hparts hrest hlimit
      omega
    split <;> rename_i hleast
    · subst hleast
      split <;> rename_i hnone
      · exact .zero _ (by omega)
      · exact .of_eq _ (by omega) hfinite hsignificand.symm (by rw [hexponent']; rfl)
    · rw [if_neg hleast] at hsignificand hexponent'
      exact .of_eq _ (by unfold binade at hparts; omega) hfinite hsignificand.symm hexponent'.symm

theorem ofUnpacked_unpacked (x : Float) : ofUnpacked (unpacked x) = x := Float.ofBits_toBits x

section Classes

variable {x : Float}

theorem unpacked_of_isNaN (h : isNaN x = true) : unpacked x = .notANumber := by
  have hlt : limit < magnitude x := of_decide_eq_true h
  have hu := unpacks x
  generalize unpacked x = u at hu ⊢
  cases hu with
  | notANumber => rfl
  | infinity s h' | zero s h' | finite s hpos h' => exact absurd hlt (by rw [limit] at *; omega)

theorem unpacked_of_isZero (h : Quantity.isZero x = true) : ∃ s, unpacked x = .zero s := by
  have hzero : magnitude x = 0 := isZero_iff.mp h
  have hu := unpacks x
  generalize unpacked x = u at hu ⊢
  cases hu with
  | zero s => exact ⟨s, rfl⟩
  | notANumber h' => exact absurd (of_decide_eq_true h' : limit < _) (by omega)
  | infinity s h' => exact absurd (hzero.symm.trans h') (by decide)
  | finite s hpos => exact absurd hzero hpos.ne'

theorem unpacked_of_isFinite (h : isFinite x = true) :
    (∃ s, unpacked x = .zero s) ∨ ∃ s m e hm, unpacked x = .finite s m e hm := by
  have hlt : magnitude x < limit := of_decide_eq_true h
  have hu := unpacks x
  generalize unpacked x = u at hu ⊢
  cases hu with
  | notANumber h' => exact absurd (of_decide_eq_true h' : limit < _) (by omega)
  | infinity s h' => exact absurd hlt (by omega)
  | zero s => exact .inl ⟨s, rfl⟩
  | finite s => exact .inr ⟨s, _, _, _, rfl⟩

theorem unpacked_of_not_isFinite (h : isFinite x = false) :
    unpacked x = .notANumber ∨ ∃ s, unpacked x = .infinity s := by
  have hge : limit ≤ magnitude x := Nat.le_of_not_lt (of_decide_eq_false h)
  have hu := unpacks x
  generalize unpacked x = u at hu ⊢
  cases hu with
  | notANumber => exact .inl rfl
  | infinity s => exact .inr ⟨s, rfl⟩
  | zero s h' | finite s hpos h' => exact absurd hge (by rw [limit] at *; omega)

end Classes

/-! ## What is no number -/

section NaN

variable {x y : Float}

theorem isNaN_mul (h : isNaN x = true) (y : Float) : isNaN (x * y) = true := by
  change isNaN (ofUnpacked (UnpackedFloat.mul Format.binary64 (unpacked x) (unpacked y))) = true
  rw [unpacked_of_isNaN h]
  rfl

theorem isNaN_add (x : Float) (h : isNaN y = true) : isNaN (x + y) = true := by
  change isNaN (ofUnpacked (UnpackedFloat.add Format.binary64 (unpacked x) (unpacked y))) = true
  rw [unpacked_of_isNaN h]
  cases unpacked x <;> rfl

/-- Infinity less itself is no number. -/
theorem isNaN_sub_self (h : isFinite x = false) : isNaN (x - x) = true := by
  change isNaN (ofUnpacked (UnpackedFloat.sub Format.binary64 (unpacked x) (unpacked x))) = true
  rcases unpacked_of_not_isFinite h with hx | ⟨s, hx⟩
  · rw [hx]
    rfl
  · rw [hx]
    cases s <;> rfl

end NaN

/-! ## Zeros -/

section Zero

variable {x y : Float}

theorem isZero_ofUnpacked_zero (s : Sign) : Quantity.isZero (ofUnpacked (.zero s)) = true := by
  cases s <;> rfl

theorem isFinite_of_isZero (h : Quantity.isZero x = true) : isFinite x = true := by
  rw [isFinite, isZero_iff.mp h]
  rfl

theorem floorNat_of_isZero (h : Quantity.isZero x = true) : floorNat x = 0 := by
  rw [floorNat, isZero_iff.mp h, isFinite_of_isZero h]
  split <;> rfl

theorem ceilNat_of_isZero (h : Quantity.isZero x = true) : ceilNat x = 0 := by
  rw [ceilNat, isZero_iff.mp h, isFinite_of_isZero h]
  split <;> rfl

theorem isZero_sub_self (h : isFinite x = true) : Quantity.isZero (x - x) = true := by
  change Quantity.isZero
    (ofUnpacked (UnpackedFloat.sub Format.binary64 (unpacked x) (unpacked x))) = true
  rcases unpacked_of_isFinite h with ⟨s, hx⟩ | ⟨s, m, e, hm, hx⟩
  · rw [hx]
    cases s <;> rfl
  · rw [hx]
    simp only [UnpackedFloat.sub, UnpackedFloat.normalize, Int.sub_self]
    exact isZero_ofUnpacked_zero _

/-- A zero times a finite double is a zero. -/
theorem isZero_mul (hx : Quantity.isZero x = true) (hy : isFinite y = true) :
    Quantity.isZero (x * y) = true := by
  obtain ⟨s, hs⟩ := unpacked_of_isZero hx
  change Quantity.isZero
    (ofUnpacked (UnpackedFloat.mul Format.binary64 (unpacked x) (unpacked y))) = true
  rcases unpacked_of_isFinite hy with ⟨r, hy⟩ | ⟨r, m, e, hm, hy⟩ <;>
  · rw [hs, hy]
    exact isZero_ofUnpacked_zero _

/-- A zero adds nothing, but may change the sign of a zero. -/
theorem agree_add_zero (x : Float) (h : Quantity.isZero y = true) : Agree (x + y) x := by
  obtain ⟨s, hs⟩ := unpacked_of_isZero h
  have hx := ofUnpacked_unpacked x
  change Agree (ofUnpacked (UnpackedFloat.add Format.binary64 (unpacked x) (unpacked y))) x
  rw [hs]
  generalize unpacked x = u at hx ⊢
  subst hx
  cases u with
  | notANumber | infinity | finite => exact .refl _
  | zero r => exact .inr ⟨by cases r <;> cases s <;> rfl, isZero_ofUnpacked_zero r⟩

end Zero

/-! ## One -/

/-- The exponent is the one at which a double of this size counts its significand. -/
def Canonical (m : Nat) (e : Int) : Prop :=
  Format.binary64.targetExponent (totalExponent m e) = e

theorem canonical_value (k : Nat) (hpos : 0 < k) : Canonical (significand k) (exponent k) := by
  have hlog : (significand k).log2 < 52 ∧ exponent k = -1074 ∨
      (significand k).log2 = 52 ∧ -1074 ≤ exponent k := by
    have hne : significand k ≠ 0 := (significand_pos hpos).ne'
    rw [Nat.log2_lt hne, Nat.log2_eq_iff hne]
    unfold significand exponent binade
    split <;> omega
  change max (((significand k).log2 + 1 + exponent k : Int) - 53) (-1074) = exponent k
  omega

theorem log2_two_pow_mul {m : Nat} (hm : 0 < m) (n : Nat) : (2 ^ n * m).log2 = n + m.log2 := by
  refine (Nat.log2_eq_iff (by positivity)).mpr ⟨?_, ?_⟩
  · rw [Nat.pow_add]
    exact Nat.mul_le_mul_left _ (Nat.log2_self_le hm.ne')
  · rw [Nat.add_assoc, Nat.pow_add]
    exact Nat.mul_lt_mul_of_pos_left Nat.lt_log2_self (by positivity)

/-- Bits that are zero are shifted out without a trace. -/
theorem shiftRight_two_pow_mul (n m : Nat) :
    (⟨2 ^ n * m, false, false⟩ : ExtendedMantissa) >>> n = ⟨m, false, false⟩ := by
  induction n generalizing m with
  | zero => rw [Nat.pow_zero, Nat.one_mul]; rfl
  | succ n ih =>
    change ExtendedMantissa.shiftRightOne
      ((⟨2 ^ (n + 1) * m, false, false⟩ : ExtendedMantissa) >>> n) = _
    rw [Nat.pow_succ, Nat.mul_assoc, ih]
    simp [ExtendedMantissa.shiftRightOne]

/-- A significand shifted by as many places as the exponent is lowered. -/
theorem roundWithAccuracy_shifted {s : Sign} {m : Nat} {e : Int} (hm : 0 < m)
    (he : Canonical m e) (n : Nat) :
    roundWithAccuracy Format.binary64 s (2 ^ n * m) (-n + e) .exact = .finite s m e hm := by
  have hsize : totalExponent (2 ^ n * m) (-n + e) = totalExponent m e := by
    rw [totalExponent, totalExponent, log2_two_pow_mul hm]
    omega
  have hshift : shiftToTargetExponent Format.binary64 (2 ^ n * m) (-n + e) .exact =
      (⟨m, false, false⟩, e) := by
    have hamount : (e - (-n + e)).toNat = n := by omega
    rw [shiftToTargetExponent, hsize, he, shiftToExponent, hamount]
    refine Prod.ext (shiftRight_two_pow_mul n m) ?_
    change -(n : Int) + e + n = e
    omega
  have hstay : shiftToTargetExponent Format.binary64 m e .exact = (⟨m, false, false⟩, e) := by
    rw [shiftToTargetExponent, he, shiftToExponent, Int.sub_self]
    exact Prod.ext rfl (Int.add_zero e)
  have hround : ExtendedMantissa.roundedMantissa ⟨m, false, false⟩ = m := rfl
  simp only [roundWithAccuracy, hshift, hround, hstay, dif_neg hm.ne']

theorem ofInt_one_mul (x : Float) : ofInt 1 * x = x := by
  have hone : unpacked (ofInt 1) = .finite .positive (2 ^ 52) (-52) (by decide) := rfl
  have hx := ofUnpacked_unpacked x
  change ofUnpacked (UnpackedFloat.mul Format.binary64 (unpacked (ofInt 1)) (unpacked x)) = x
  rw [hone]
  have hu := unpacks x
  generalize unpacked x = u at hu hx ⊢
  cases hu with
  | notANumber => exact hx
  | infinity s => cases s <;> exact hx
  | zero s => cases s <;> exact hx
  | finite s hpos h =>
    have hround := roundWithAccuracy_shifted (s := s) (significand_pos hpos)
      (canonical_value _ hpos) 52
    have hsign : Sign.positive * s = s := by cases s <;> rfl
    rw [UnpackedFloat.mul, hsign]
    exact (congrArg ofUnpacked hround).trans hx

/-! ## Whole numbers -/

/-- A whole number of at most 53 binary digits is the value of a double. -/
theorem exists_value_eq {n : Nat} (h : n < 2 ^ 53) :
    ∃ k < limit, numerator k = n * denominator k := by
  rcases Nat.eq_zero_or_pos n with rfl | hpos
  · exact ⟨0, by decide, by decide⟩
  · have hlog : n.log2 ≤ 52 := Nat.le_of_lt_succ ((Nat.log2_lt hpos.ne').mpr h)
    obtain ⟨places, hplaces⟩ := Nat.exists_eq_add_of_le hlog
    have hlow : 2 ^ 52 ≤ n * 2 ^ places := by
      rw [hplaces, Nat.pow_add]
      exact Nat.mul_le_mul_right _ (Nat.log2_self_le hpos.ne')
    have hhigh : n * 2 ^ places < 2 ^ 53 := by
      have hsum : 53 = n.log2 + 1 + places := by omega
      rw [hsum, Nat.pow_add]
      exact Nat.mul_lt_mul_of_pos_right Nat.lt_log2_self (by positivity)
    refine ⟨(n.log2 + 1022) * binade + n * 2 ^ places, ?_, ?_⟩
    · unfold limit binade
      omega
    · have hsignificand : significand ((n.log2 + 1022) * binade + n * 2 ^ places) =
          n * 2 ^ places := by
        unfold significand binade
        split <;> omega
      have hexponent : exponent ((n.log2 + 1022) * binade + n * 2 ^ places) = -places := by
        unfold exponent binade
        split <;> omega
      have hup : (-(places : Int)).toNat = 0 := by omega
      have hdown : (-(-(places : Int))).toNat = places := by omega
      rw [numerator, denominator, hsignificand, hexponent, hup, hdown, Nat.shiftLeft_zero,
        Nat.one_shiftLeft]

theorem magnitude_ofInt (n : Int) : magnitude (ofInt n) = nearest n.natAbs 1 :=
  magnitude_ofMagnitude (nearest_le_limit _ _)

section Whole

variable {n : Nat}

theorem numerator_ofInt (h : n < 2 ^ 53) :
    numerator (magnitude (ofInt n)) = n * denominator (magnitude (ofInt n)) := by
  obtain ⟨k, hk, hvalue⟩ := exists_value_eq h
  have hnearest : nearest n 1 = k := by
    rw [← nearest_value hk]
    exact nearest_congr Nat.one_pos (denominator_pos k) (by rw [hvalue, Nat.mul_one])
  rw [magnitude_ofInt, Int.natAbs_natCast, hnearest]
  exact hvalue

theorem isNegative_ofInt (n : Nat) : isNegative (ofInt n) = false := by
  rw [ofInt, isNegative_ofMagnitude (nearest_le_limit _ _)]
  exact decide_eq_false (Int.not_lt.mpr (Int.natCast_nonneg n))

theorem isFinite_and_isNaN_ofInt (h : n < 2 ^ 53) :
    isFinite (ofInt n) = true ∧ isNaN (ofInt n) = false := by
  have hfinite : isFinite (ofInt n) = true := isFinite_ofInt (by omega)
  exact ⟨hfinite, LawfulQuantity.isNaN_of_isFinite (α := Float) (x := ofInt n) hfinite⟩

theorem floorNat_ofInt (h : n < 2 ^ 53) : floorNat (ofInt n) = n := by
  obtain ⟨hfinite, hnumber⟩ := isFinite_and_isNaN_ofInt h
  rw [floorNat, isNegative_ofInt, hnumber, if_neg (by decide), if_pos hfinite, numerator_ofInt h,
    Nat.mul_div_cancel _ (denominator_pos _)]
  exact Nat.min_eq_right (by unfold largestWord; omega)

theorem ceilNat_ofInt (h : n < 2 ^ 53) : ceilNat (ofInt n) = n := by
  obtain ⟨hfinite, hnumber⟩ := isFinite_and_isNaN_ofInt h
  have hd := denominator_pos (magnitude (ofInt n))
  have hceil : (n * denominator (magnitude (ofInt n)) + denominator (magnitude (ofInt n)) - 1) /
      denominator (magnitude (ofInt n)) = n := by
    rw [Nat.add_sub_assoc hd, Nat.mul_comm, Nat.mul_add_div hd, Nat.div_eq_of_lt (by omega),
      Nat.add_zero]
  rw [ceilNat, isNegative_ofInt, hnumber, if_neg (by decide), if_pos hfinite]
  dsimp only
  rw [numerator_ofInt h, hceil]
  exact Nat.min_eq_right (by unfold largestWord; omega)

end Whole

end TableSteps.Binary64

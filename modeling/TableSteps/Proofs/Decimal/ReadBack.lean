import TableSteps.Proofs.Binary64.Rounding
import TableSteps.Decimal.Shortest

/-! # The digits of a double read back

A decimal is read as the double closest to its value, so decimals of one value are read alike. The
digits chosen for a finite double, the shortest as well as all of them, are read back as that
double. -/

namespace TableSteps.Decimal

open Binary64 (nearest nearest_congr nearest_eq_limit nearest_eq_zero)

/-- The decimal as a fraction. -/
def numerator (d : Decimal) : Nat := d.digits * tenTo d.exponent.toNat

def denominator (d : Decimal) : Nat := tenTo (-d.exponent).toNat

theorem denominator_pos (d : Decimal) : 0 < d.denominator := tenTo_pos _

theorem tenTo_succ (n : Nat) : tenTo (n + 1) = tenTo n * 10 := rfl

theorem two_pow_le_tenTo (n : Nat) : 2 ^ (3 * n) ≤ tenTo n := by
  rw [Nat.pow_mul]
  exact Nat.pow_le_pow_left (by decide) n

/-- The exponents that are settled without a power of ten are settled as rounding would. -/
theorem magnitude_eq_nearest (d : Decimal) : d.magnitude = nearest d.numerator d.denominator := by
  unfold magnitude
  split
  · rename_i hzero
    simp [numerator, hzero, nearest]
  · rename_i hzero
    have hdigits : 0 < d.digits := Nat.pos_of_ne_zero hzero
    split
    · rename_i hbig
      have hden : d.denominator = 1 := by
        unfold denominator
        rw [show (-d.exponent).toNat = 0 by omega]
        rfl
      have hle : 2 ^ (3 * d.exponent.toNat) * d.denominator ≤ d.numerator := by
        rw [hden, Nat.mul_one]
        exact (two_pow_le_tenTo _).trans (Nat.le_mul_of_pos_left _ hdigits)
      exact (nearest_eq_limit d.denominator_pos (by omega) hle).symm
    · split
      · rename_i hsmall
        have hnum : d.numerator = d.digits := by
          unfold numerator
          rw [show d.exponent.toNat = 0 by omega]
          exact Nat.mul_one _
        have hle : ∀ n, d.digits.log2 + 1 + n ≤ 3 * (-d.exponent).toNat →
            d.numerator * 2 ^ n ≤ d.denominator := by
          intro n hn
          calc d.numerator * 2 ^ n ≤ 2 ^ (d.digits.log2 + 1) * 2 ^ n := by
                rw [hnum]
                exact Nat.mul_le_mul_right _ Nat.lt_log2_self.le
            _ = 2 ^ (d.digits.log2 + 1 + n) := (Nat.pow_add _ _ _).symm
            _ ≤ 2 ^ (3 * (-d.exponent).toNat) := Nat.pow_le_pow_right (by decide) hn
            _ ≤ d.denominator := two_pow_le_tenTo _
        exact (nearest_eq_zero (Nat.le_refl 1076) (hle _ (by omega))).symm
      · rfl

/-- Decimals of one value are read as one double. -/
theorem magnitude_congr {d d' : Decimal}
    (h : d.numerator * d'.denominator = d'.numerator * d.denominator) :
    d.magnitude = d'.magnitude := by
  rw [magnitude_eq_nearest, magnitude_eq_nearest]
  exact nearest_congr d.denominator_pos d'.denominator_pos h

/-! ## The digits of a double -/

/-- A zero moved from the digits into the exponent leaves the value. -/
theorem magnitude_shift (digits : Nat) (e : Int) :
    (⟨digits * 10, e⟩ : Decimal).magnitude = (⟨digits, e + 1⟩ : Decimal).magnitude := by
  apply magnitude_congr
  simp only [numerator, denominator]
  by_cases he : 0 ≤ e
  · rw [show (e + 1).toNat = e.toNat + 1 by omega, show (-(e + 1)).toNat = 0 by omega,
      show (-e).toNat = 0 by omega, tenTo_succ]
    ring
  · rw [show (e + 1).toNat = 0 by omega, show e.toNat = 0 by omega,
      show (-e).toNat = (-(e + 1)).toNat + 1 by omega, tenTo_succ]
    ring

theorem magnitude_stripZeros (d : Decimal) : (stripZeros d).magnitude = d.magnitude := by
  fun_induction stripZeros d with
  | case1 d h ih =>
    rw [ih, ← magnitude_shift]
    congr 2
    omega
  | case2 d h => rfl

/-- All digits of a double are its value. -/
theorem magnitude_exact {k : Nat} (hk : k < Binary64.limit) : (exact k).magnitude = k := by
  rw [magnitude_eq_nearest]
  refine Eq.trans ?_ (Binary64.nearest_value hk)
  apply nearest_congr (denominator_pos _) (Binary64.denominator_pos k)
  simp only [exact, numerator, denominator, Binary64.denominator, Nat.shiftLeft_eq, Nat.one_mul]
  have hten : ∀ n : Nat, tenTo n = 2 ^ n * Nat.pow 5 n := Nat.mul_pow 2 5
  by_cases he : 0 ≤ Binary64.exponent k
  · rw [show min 0 (Binary64.exponent k) = 0 by omega,
      show (-Binary64.exponent k).toNat = 0 by omega]
    simp
  · rw [show min 0 (Binary64.exponent k) = Binary64.exponent k by omega,
      show (Binary64.exponent k).toNat = 0 by omega, hten (-Binary64.exponent k).toNat]
    simp only [tenTo, Nat.pow_eq, Nat.pow_zero]
    ring

/-- The shortest digits of a double read back as the double. -/
theorem magnitude_shortest {k : Nat} (hk : k < Binary64.limit) : (shortest k).magnitude = k := by
  simp only [shortest, magnitude_stripZeros]
  generalize hfound : (List.range 17).findSome? _ = found
  cases found with
  | none => exact magnitude_exact hk
  | some d =>
    obtain ⟨p, -, hp⟩ := List.exists_of_findSome?_eq_some hfound
    exact onGrid?_magnitude hp

end TableSteps.Decimal

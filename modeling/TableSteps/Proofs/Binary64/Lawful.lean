import TableSteps.Binary64.Bits
import TableSteps.Binary64.Quantity
import TableSteps.Proofs.Quantity.Laws

/-! # Doubles are lawful

The order of doubles is that of their ranks, which are whole numbers, and a key is a bit pattern:
that of the number, save that all patterns of no number and both zeros have one key each. A double
has the key of every pattern that it is made from. -/

namespace TableSteps.Binary64

/-! ## Keys -/

theorem canonicalPattern_canonicalPattern (bits : UInt64) :
    canonicalPattern (canonicalPattern bits) = canonicalPattern bits := by
  by_cases hnan : limit < below bits
  · have hcode : canonicalPattern bits = 0x7FF8000000000000 := if_pos hnan
    rw [hcode]
    rfl
  · by_cases hzero : below bits = 0
    · have hcode : canonicalPattern bits = 0 := by rw [canonicalPattern, if_neg hnan, if_pos hzero]
      rw [hcode]
      rfl
    · have hcode : canonicalPattern bits = bits := by
        rw [canonicalPattern, if_neg hnan, if_neg hzero]
      rw [hcode, hcode]

instance : LawfulKeyed Pattern where
  key_ofKey_key p := canonicalPattern_canonicalPattern p.bits

/-- The code of a double depends on its pattern alone. -/
theorem canonicalBits_ofBits (bits : UInt64) :
    canonicalBits (Float.ofBits bits) = canonicalPattern bits := by
  by_cases hnan : limit < below bits
  · have hcode : canonicalPattern bits = 0x7FF8000000000000 := if_pos hnan
    rw [canonicalBits, toBits_ofBits_of_not_number hnan, hcode]
    rfl
  · rw [canonicalBits, toBits_ofBits (Nat.le_of_not_lt hnan)]

instance : LawfulQuantity Float where
  key_ofKey_key x := by
    change canonicalBits (Float.ofBits (canonicalPattern x.toBits)) = canonicalPattern x.toBits
    rw [canonicalBits_ofBits, canonicalPattern_canonicalPattern]
  isNaN_of_isFinite {x} h := by
    simp only [Quantity.isFinite, Quantity.isNaN, isFinite, isNaN, decide_eq_true_eq,
      decide_eq_false_iff_not] at h ⊢
    omega
  lt_irrefl := lt_irrefl
  lt_trans := lt_trans
  lt_or_lt {x y z} h hy := by
    simp only [Quantity.lt, Quantity.isNaN, lt, Bool.and_eq_true, Bool.not_eq_true',
      decide_eq_true_eq] at h hy ⊢
    by_cases hxy : rank x < rank y
    · exact .inl ⟨⟨h.1.1, hy⟩, hxy⟩
    · exact .inr ⟨⟨hy, h.1.2⟩, by omega⟩
  eqv_of_not_lt {x y} hx hy hxy hyx := by
    simp only [Quantity.lt, Quantity.isNaN, Quantity.eqv, lt, eqv] at hx hy hxy hyx ⊢
    simp only [hx, hy, Bool.not_false, Bool.true_and, decide_eq_false_iff_not,
      decide_eq_true_eq] at hxy hyx ⊢
    omega

end TableSteps.Binary64

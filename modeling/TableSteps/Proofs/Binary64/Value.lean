import TableSteps.Proofs.Binary64.SignedZero
import TableSteps.Proofs.Binary64.Rounding
import TableSteps.Proofs.Quantity.Exact

/-! # The values of patterns

A pattern of 64 bits is a finite number, an infinity of either sign, or no number; those that are no
number are told apart by their signs and their other bits. Finite patterns are equal as numbers when
they stand for one rational, and that is so for different patterns only where both are zero. So a
key, which has one code for both zeros and one for all that is no number, has one code for each
value. -/

namespace TableSteps.Binary64

theorem eq_of_value_eq {k l : Nat} (hk : k < limit) (hl : l < limit)
    (h : (numerator k : ℚ) / denominator k = numerator l / denominator l) : k = l := by
  have hdk : (denominator k : ℚ) ≠ 0 := by exact_mod_cast (denominator_pos k).ne'
  have hdl : (denominator l : ℚ) ≠ 0 := by exact_mod_cast (denominator_pos l).ne'
  rw [div_eq_div_iff hdk hdl] at h
  rw [← nearest_value hk, ← nearest_value hl]
  exact nearest_congr (denominator_pos k) (denominator_pos l) (by exact_mod_cast h)

theorem below_canonicalPattern (bits : UInt64) :
    below (canonicalPattern bits) =
      if limit < below bits then 0x7FF8000000000000 else below bits := by
  unfold canonicalPattern
  split
  · rfl
  · split
    · rename_i hzero
      rw [hzero]
      rfl
    · rfl

/-- Patterns share a code only if they are both zero or both no number. -/
theorem canonicalPattern_eq_iff {a b : UInt64} :
    canonicalPattern a = canonicalPattern b ↔
      a = b ∨ (below a = 0 ∧ below b = 0) ∨ (limit < below a ∧ limit < below b) := by
  constructor
  · intro h
    have hbelow := congrArg below h
    rw [below_canonicalPattern, below_canonicalPattern] at hbelow
    by_cases ha : limit < below a <;> by_cases hb : limit < below b <;>
      simp only [ha, hb, if_true, if_false] at hbelow
    · exact .inr (.inr ⟨ha, hb⟩)
    · exact absurd (hbelow ▸ (by decide : limit < 0x7FF8000000000000)) hb
    · exact absurd (hbelow ▸ (by decide : limit < 0x7FF8000000000000)) ha
    · by_cases hzero : below a = 0
      · exact .inr (.inl ⟨hzero, hbelow ▸ hzero⟩)
      · rw [canonicalPattern, if_neg ha, if_neg hzero, canonicalPattern, if_neg hb,
          if_neg (hbelow ▸ hzero)] at h
        exact .inl h
  · intro h
    rcases h with rfl | ⟨ha, hb⟩ | ⟨ha, hb⟩
    · rfl
    · have hlimit : ¬ limit < 0 := Nat.not_lt_zero _
      simp [canonicalPattern, ha, hb, hlimit]
    · simp [canonicalPattern, ha, hb]

namespace Pattern

/-- The number that a finite pattern stands for. -/
def value (p : Pattern) : ℚ :=
  let k := below p.bits
  let size : ℚ := numerator k / denominator k
  if signBit ≤ p.bits.toNat then -size else size

/-- Two patterns that are one number: finite ones of one value, or one infinity. -/
inductive SameNumber : Pattern → Pattern → Prop
  | finite {p q : Pattern} : below p.bits < limit → below q.bits < limit → p.value = q.value →
    SameNumber p q
  | infinite {p : Pattern} : below p.bits = limit → SameNumber p p

variable {p q : Pattern}

theorem SameNumber.not_limit_lt (h : SameNumber p q) : ¬ limit < below p.bits := by
  cases h with
  | finite hp => exact Nat.not_lt.mpr (Nat.le_of_lt hp)
  | infinite hp => exact Nat.not_lt.mpr (Nat.le_of_eq hp)

theorem value_of_zero (h : below p.bits = 0) : p.value = 0 := by
  have hnumerator : numerator 0 = 0 := rfl
  simp [value, h, hnumerator]

/-- Different finite patterns of one value are zeros: values of opposite signs are both zero. -/
theorem eq_or_zero_of_value_eq (hp : below p.bits < limit) (hq : below q.bits < limit)
    (h : p.value = q.value) : p = q ∨ (below p.bits = 0 ∧ below q.bits = 0) := by
  have hnonneg (k : Nat) : (0 : ℚ) ≤ numerator k / denominator k := by positivity
  have hzero : (numerator 0 : ℚ) / denominator 0 = 0 := by
    rw [show numerator 0 = 0 from rfl, Nat.cast_zero, zero_div]
  have hopposite {k l : Nat} (hk : k < limit) (hl : l < limit)
      (hkl : (numerator k : ℚ) / denominator k = -(numerator l / denominator l)) :
      k = 0 ∧ l = 0 := by
    have hk0 := hnonneg k
    have hl0 := hnonneg l
    exact ⟨eq_of_value_eq hk (by decide) (by rw [hzero]; linarith),
      eq_of_value_eq hl (by decide) (by rw [hzero]; linarith)⟩
  have hequal (hbits : p.bits.toNat = q.bits.toNat) : p = q := by
    obtain ⟨a⟩ := p
    obtain ⟨b⟩ := q
    exact congrArg mk (UInt64.toNat_inj.mp hbits)
  unfold value at h
  by_cases hsp : signBit ≤ p.bits.toNat <;> by_cases hsq : signBit ≤ q.bits.toNat <;>
    simp only [hsp, hsq, if_true, if_false] at h
  · have hbelow := eq_of_value_eq hp hq (neg_inj.mp h)
    refine .inl (hequal ?_)
    rw [toNat_eq_below p.bits, toNat_eq_below q.bits, if_pos hsp, if_pos hsq, hbelow]
  · obtain ⟨hq0, hp0⟩ := hopposite hq hp h.symm
    exact .inr ⟨hp0, hq0⟩
  · exact .inr (hopposite hp hq h)
  · have hbelow := eq_of_value_eq hp hq h
    refine .inl (hequal ?_)
    rw [toNat_eq_below p.bits, toNat_eq_below q.bits, if_neg hsp, if_neg hsq, hbelow]

/-- One code is shared by what is one number, and by all that is none. -/
theorem canonicalPattern_eq_iff_sameNumber :
    canonicalPattern p.bits = canonicalPattern q.bits ↔
      SameNumber p q ∨ (limit < below p.bits ∧ limit < below q.bits) := by
  rw [canonicalPattern_eq_iff]
  constructor
  · intro h
    rcases h with h | ⟨hp, hq⟩ | hnone
    · obtain rfl : p = q := congrArg mk h
      rcases Nat.lt_trichotomy (below p.bits) limit with hlt | heq | hgt
      · exact .inl (.finite hlt hlt rfl)
      · exact .inl (.infinite heq)
      · exact .inr ⟨hgt, hgt⟩
    · have hlimit : 0 < limit := by decide
      have hvalue : p.value = q.value := by rw [value_of_zero hp, value_of_zero hq]
      exact .inl (.finite (hp ▸ hlimit) (hq ▸ hlimit) hvalue)
    · exact .inr hnone
  · intro h
    rcases h with h | hnone
    · cases h with
      | finite hp hq hvalue =>
        rcases eq_or_zero_of_value_eq hp hq hvalue with rfl | hzero
        · exact .inl rfl
        · exact .inr (.inl hzero)
      | infinite => exact .inl rfl
    · exact .inr (.inr hnone)

end Pattern

/-- Numerical equality of doubles is that of their patterns. -/
theorem eqv_iff_sameNumber {x y : Float} :
    eqv x y = true ↔ Pattern.SameNumber ⟨x.toBits⟩ ⟨y.toBits⟩ := by
  cases hx : isNaN x with
  | false =>
    have hnumber : ¬ limit < below x.toBits := of_decide_eq_false hx
    have hcode := Pattern.canonicalPattern_eq_iff_sameNumber (p := ⟨x.toBits⟩) (q := ⟨y.toBits⟩)
    rw [or_iff_left fun h => hnumber h.1] at hcode
    exact (Quantity.eqv_iff_key_eq (α := Float) hx).trans hcode
  | true =>
    have hnan : limit < below x.toBits := of_decide_eq_true hx
    exact iff_of_false (by simp [eqv, hx]) fun h => h.not_limit_lt hnan

end TableSteps.Binary64
